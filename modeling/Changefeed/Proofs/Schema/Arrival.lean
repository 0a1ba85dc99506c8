import Mathlib.Data.Finset.Card
import Mathlib.Data.Finset.Filter
import Changefeed.Proofs.Schema.Registration

/-!
# Layouts in any order of arrival

Layouts come to a history from the log, from a configuration that registers those of one table, and
from batches.  Tasks that share a history send them in no particular order, and a task that starts
again sends what was there already.

When the layouts of a table stand at different places in log files, none of this shows in the
history.  A layout that comes again is recognised by its position, and a new one is put between those
before and those behind its place, so the records of the table ascend and are those that came, each
once.  Only one list is like that, and every answer about the table is read off it.
-/

namespace Changefeed

/-! ## Ascending records -/

/-- Each record stands at a position before those of the records behind it. -/
def Ascend (rs : List SchemaRecord) : Prop :=
  rs.Pairwise fun r later => r.position.before later.position = true

namespace Ascend

variable {r : SchemaRecord} {rs rs' : List SchemaRecord}

lemma nodup (h : Ascend rs) : rs.Nodup :=
  h.imp fun hbefore heq => by simp [heq] at hbefore

lemma eq_of_mem_iff (hn : ∀ r ∈ rs, r.position.Normal) (h : Ascend rs) (h' : Ascend rs')
    (hmem : ∀ r, r ∈ rs ↔ r ∈ rs') : rs = rs' := by
  have hperm : rs.Perm rs' := (List.perm_ext_iff_of_nodup h.nodup h'.nodup).mpr hmem
  refine hperm.eq_of_pairwise (fun a b ha hb hab hba => ?_) h h'
  have hloop := Offset.before_trans (hn a ha) (hn b ((hmem b).mpr hb)) (hn a ha) hab hba
  simp at hloop

/-- A record that is before or behind each of the others is put in its place. -/
lemma insertByPosition (h : Ascend rs) (hr : r.position.Normal)
    (hn : ∀ x ∈ rs, x.position.Normal)
    (hside : ∀ x ∈ rs, r.position.before x.position = true ∨ x.position.before r.position = true) :
    Ascend (r.insertByPosition rs) := by
  induction rs with
  | nil => exact List.pairwise_singleton ..
  | cons s rest ih =>
    obtain ⟨hhead, htail⟩ := List.pairwise_cons.mp h
    have hs := hn s (.head _)
    rw [SchemaRecord.insertByPosition]
    split
    · next hafter =>
      have hbefore := (Offset.after_iff_before hr hs).mp hafter
      refine List.pairwise_cons.mpr ⟨fun x hx => ?_, h⟩
      rcases List.mem_cons.mp hx with rfl | hx
      · exact hbefore
      · exact Offset.before_trans hr hs (hn x (.tail _ hx)) hbefore (hhead x hx)
    · next hafter =>
      have hbefore : s.position.before r.position = true :=
        (hside s (.head _)).resolve_left fun hlater =>
          hafter ((Offset.after_iff_before hr hs).mpr hlater)
      refine List.pairwise_cons.mpr ⟨fun x hx => ?_, ?_⟩
      · rcases SchemaRecord.mem_insertByPosition.mp hx with rfl | hx
        · exact hbefore
        · exact hhead x hx
      · exact ih htail (fun x hx => hn x (.tail _ hx)) fun x hx => hside x (.tail _ hx)

end Ascend

/-! ## Layouts at places -/

/-- Layouts at places in log files, those of one table at different ones. -/
structure Placed (layouts : Finset SchemaRecord) : Prop where
  inFiles : ∀ r ∈ layouts, ∃ filename place, r.position = .binlog filename place
  distinct : ∀ r ∈ layouts, ∀ s ∈ layouts, r.tableId = s.tableId → r.position = s.position → r = s

namespace Placed

variable {layouts : Finset SchemaRecord} {r s : SchemaRecord} {rs : List SchemaRecord}

lemma normal (hl : Placed layouts) (hr : r ∈ layouts) : r.position.Normal := by
  obtain ⟨filename, place, hposition⟩ := hl.inFiles r hr
  rw [hposition]
  trivial

lemma eq_of_same (hl : Placed layouts) (hr : r ∈ layouts) (hs : s ∈ layouts)
    (htable : s.tableId = r.tableId) (hsame : s.sameLayoutAt r = true) : s = r := by
  simp only [SchemaRecord.sameLayoutAt, Bool.and_eq_true, decide_eq_true_eq] at hsame
  exact hl.distinct s hs r hr htable hsame.1.1

/-- Of two layouts of a table one stands before the other. -/
lemma before_or_before (hl : Placed layouts) (hr : r ∈ layouts) (hs : s ∈ layouts)
    (htable : s.tableId = r.tableId) (hne : s ≠ r) :
    r.position.before s.position = true ∨ s.position.before r.position = true := by
  have hcomparable : r.position.Comparable s.position := by
    obtain ⟨f, p, hf⟩ := hl.inFiles r hr
    obtain ⟨g, q, hg⟩ := hl.inFiles s hs
    rw [hf, hg, Offset.Comparable, Offset.compare?_binlog, Option.isSome_some]
  rcases hcomparable.cases with hbefore | heq | hafter
  · exact .inl hbefore
  · exact absurd (hl.distinct s hs r hr htable heq.symm) hne
  · exact .inr ((Offset.after_iff_before (hl.normal hs) (hl.normal hr)).mp hafter)

lemma mem_addTo (hl : Placed layouts) (hr : r ∈ layouts)
    (hrs : ∀ x ∈ rs, x ∈ layouts ∧ x.tableId = r.tableId) : s ∈ r.addTo rs ↔ s = r ∨ s ∈ rs := by
  rw [SchemaRecord.addTo]
  split
  · next hany =>
    obtain ⟨x, hx, hsame⟩ := List.any_eq_true.mp hany
    obtain rfl := hl.eq_of_same hr (hrs x hx).1 (hrs x hx).2 hsame
    exact (or_iff_right_of_imp fun heq => heq ▸ hx).symm
  · exact SchemaRecord.mem_insertByPosition

/-- Layouts of a table that ascend do so with one more, which is put in its place if it is new. -/
lemma ascend_addTo (hl : Placed layouts) (hr : r ∈ layouts)
    (hrs : ∀ x ∈ rs, x ∈ layouts ∧ x.tableId = r.tableId) (h : Ascend rs) :
    Ascend (r.addTo rs) := by
  rw [SchemaRecord.addTo]
  split
  · exact h
  · next hnone =>
    have hnew : ∀ x ∈ rs, x ≠ r := by
      rintro x hx rfl
      exact hnone (List.any_eq_true.mpr ⟨x, hx, by simp [SchemaRecord.sameLayoutAt]⟩)
    exact h.insertByPosition (hl.normal hr) (fun x hx => hl.normal (hrs x hx).1) fun x hx =>
      hl.before_or_before hr (hrs x hx).1 (hrs x hx).2 (hnew x hx)

end Placed

/-! ## What a history lists -/

namespace SchemaHistory

variable {h h' : SchemaHistory} {layouts : Finset SchemaRecord} {came more : List SchemaRecord}
  {r : SchemaRecord} {t : TableId}

/-- A history has the records that came for each table, in ascending order. -/
structure Lists (h : SchemaHistory) (came : List SchemaRecord) : Prop where
  ascend : ∀ t, Ascend (h.records t)
  mem : ∀ t r, r ∈ h.records t ↔ r ∈ came ∧ r.tableId = t

lemma lists_empty : Lists empty [] where
  ascend _ := List.Pairwise.nil
  mem t r := by simp

/-- A layout that comes joins those that came for its table. -/
lemma Lists.append (hh : h.Lists came) (hl : Placed layouts) (hr : r ∈ layouts)
    (hcame : ∀ x ∈ came, x ∈ layouts) : (h.append r).Lists (came ++ [r]) := by
  have hold : ∀ t, ∀ x ∈ h.records t, x ∈ layouts ∧ x.tableId = t := fun t x hx =>
    ((hh.mem t x).mp hx).imp_left (hcame x)
  constructor
  · intro t
    by_cases ht : t = r.tableId
    · subst ht
      rw [records_append_self]
      exact hl.ascend_addTo hr (hold _) (hh.ascend _)
    · rw [records_append_of_ne h ht]
      exact hh.ascend t
  · intro t x
    rw [List.mem_append, List.mem_singleton]
    by_cases ht : t = r.tableId
    · subst ht
      rw [records_append_self, hl.mem_addTo hr (hold _), hh.mem, or_comm, or_and_right]
      exact or_congr_right (iff_self_and.mpr (congrArg SchemaRecord.tableId))
    · rw [records_append_of_ne h ht, hh.mem]
      refine and_congr_left fun htable => (or_iff_left ?_).symm
      rintro rfl
      exact ht htable.symm

lemma Lists.appendAll (hh : h.Lists came) (hl : Placed layouts) (hmore : ∀ x ∈ more, x ∈ layouts)
    (hcame : ∀ x ∈ came, x ∈ layouts) : (h.appendAll more).Lists (came ++ more) := by
  induction more generalizing h came with
  | nil => rwa [List.append_nil]
  | cons r more ih =>
    have hr := hmore r (.head _)
    have hone : ∀ x ∈ came ++ [r], x ∈ layouts := by
      intro x hx
      rcases List.mem_append.mp hx with hx | hx
      · exact hcame x hx
      · exact List.mem_singleton.mp hx ▸ hr
    have hrest := ih (hh.append hl hr hcame) (fun x hx => hmore x (.tail _ hx)) hone
    rwa [List.append_assoc] at hrest

/-- Only the records of the tables matter to what is added to them. -/
lemma records_appendAll_congr (heq : ∀ t, h.records t = h'.records t) (rs : List SchemaRecord)
    (t : TableId) : (h.appendAll rs).records t = (h'.appendAll rs).records t := by
  induction rs generalizing h h' with
  | nil => exact heq t
  | cons r rs ih =>
    have hone : ∀ u, (h.append r).records u = (h'.append r).records u := by
      intro u
      by_cases hu : u = r.tableId
      · rw [hu, records_append_self, records_append_self, heq]
      · rw [records_append_of_ne h hu, records_append_of_ne h' hu, heq]
    exact ih hone

end SchemaHistory

/-! ## Arrivals -/

/-- A way in which layouts come to a history. -/
inductive SchemaArrival where
  | append (r : SchemaRecord)
  /-- Layouts that are registered under a table. -/
  | register (t : TableId) (rs : List SchemaRecord)
  | commit (b : SchemaBatch)

/-- The layouts that come.  Those that are registered are refused altogether when one of them is of
another table. -/
def SchemaArrival.brought : SchemaArrival → List SchemaRecord
  | .append r => [r]
  | .register t rs => if ∀ r ∈ rs, r.tableId = t then rs else []
  | .commit b => b.pending

namespace SchemaHistory

variable {layouts : Finset SchemaRecord} {arrivals arrivals' : List SchemaArrival}

/-- The history after an arrival. -/
def receive (h : SchemaHistory) : SchemaArrival → SchemaHistory
  | .append r => h.append r
  | .register t rs => (h.seed t rs).2
  | .commit b => b.commit h

/-- The history after several arrivals. -/
def receiveAll (h : SchemaHistory) (arrivals : List SchemaArrival) : SchemaHistory :=
  arrivals.foldl receive h

lemma records_seed_of_own {h : SchemaHistory} {rs : List SchemaRecord} {u : TableId}
    (hown : ∀ r ∈ rs, r.tableId = u) (t : TableId) :
    (h.seed u rs).2.records t = (h.appendAll rs).records t := by
  have hnone : rs.find? (·.tableId ≠ u) = none :=
    List.find?_eq_none.mpr fun r hr => by simpa using hown r hr
  obtain ⟨h', hh'⟩ : ∃ h', h.register u rs = .ok h' := by
    rw [register, hnone]
    exact ⟨_, rfl⟩
  rw [seed, hh']
  exact records_of_register hh' t

/-- The layouts that come are added one after the other, whichever way they come. -/
lemma records_receive (h : SchemaHistory) (a : SchemaArrival) (t : TableId) :
    (h.receive a).records t = (h.appendAll a.brought).records t := by
  cases a with
  | append r => rfl
  | commit b => rfl
  | register u rs =>
    rw [receive, SchemaArrival.brought]
    split
    · next hown => exact records_seed_of_own hown t
    · next hforeign =>
      push Not at hforeign
      obtain ⟨r, -, -, hseed⟩ := seed_of_foreign (h := h) hforeign
      rw [hseed]
      rfl

lemma records_receiveAll (h : SchemaHistory) (arrivals : List SchemaArrival) (t : TableId) :
    (h.receiveAll arrivals).records t =
      (h.appendAll (arrivals.flatMap SchemaArrival.brought)).records t := by
  induction arrivals generalizing h with
  | nil => rfl
  | cons a arrivals ih =>
    have hrest : (h.appendAll (a.brought ++ arrivals.flatMap SchemaArrival.brought)) =
        (h.appendAll a.brought).appendAll (arrivals.flatMap SchemaArrival.brought) :=
      List.foldl_append
    rw [List.flatMap_cons, hrest, ← records_appendAll_congr (h.records_receive a)]
    exact ih (h.receive a)

lemma lists_receiveAll (hl : Placed layouts)
    (hall : (arrivals.flatMap SchemaArrival.brought).toFinset = layouts) :
    (empty.receiveAll arrivals).Lists (arrivals.flatMap SchemaArrival.brought) := by
  have hcame : ∀ x ∈ arrivals.flatMap SchemaArrival.brought, x ∈ layouts := fun x hx =>
    hall ▸ List.mem_toFinset.mpr hx
  have hlists := lists_empty.appendAll hl hcame (fun x hx => absurd hx List.not_mem_nil)
  have heq := records_receiveAll empty arrivals
  exact ⟨fun t => heq t ▸ hlists.ascend t, fun t r => by rw [heq, hlists.mem, List.nil_append]⟩

/-- Layouts, those of one table at different places in log files, come to an empty history in two
ways: in any order, each at least once, those of different tables mixed, as records from the log,
registered or in batches.  For each table both histories have the same records, which ascend and are
its layouts, each once, and so both give the same answers. -/
theorem independent_of_arrival (hl : Placed layouts)
    (hall : (arrivals.flatMap SchemaArrival.brought).toFinset = layouts)
    (hall' : (arrivals'.flatMap SchemaArrival.brought).toFinset = layouts) (t : TableId) :
    let h := empty.receiveAll arrivals
    let h' := empty.receiveAll arrivals'
    h.records t = h'.records t ∧
      (h.records t).Pairwise (fun r later => r.position.before later.position = true) ∧
      (∀ r, r ∈ h.records t ↔ r ∈ layouts ∧ r.tableId = t) ∧
      h.count t = (layouts.filter (·.tableId = t)).card ∧
      (∀ q, h.schemaAt t q = h'.schemaAt t q) ∧
      h.earliest t = h'.earliest t ∧ h.latest t = h'.latest t ∧ h.count t = h'.count t := by
  intro h h'
  have hlists : h.Lists _ := lists_receiveAll hl hall
  have hlists' : h'.Lists _ := lists_receiveAll hl hall'
  have hmem : ∀ r, r ∈ h.records t ↔ r ∈ layouts ∧ r.tableId = t := fun r => by
    rw [hlists.mem, ← List.mem_toFinset, hall]
  have hmem' : ∀ r, r ∈ h'.records t ↔ r ∈ layouts ∧ r.tableId = t := fun r => by
    rw [hlists'.mem, ← List.mem_toFinset, hall']
  have heq : h.records t = h'.records t :=
    (hlists.ascend t).eq_of_mem_iff (fun r hr => hl.normal ((hmem r).mp hr).1) (hlists'.ascend t)
      fun r => (hmem r).trans (hmem' r).symm
  have hset : (h.records t).toFinset = layouts.filter (·.tableId = t) := by
    ext r
    rw [List.mem_toFinset, hmem, Finset.mem_filter]
  have hcount : h.count t = (layouts.filter (·.tableId = t)).card := by
    rw [← hset, List.toFinset_card_of_nodup (hlists.ascend t).nodup]
    rfl
  refine ⟨heq, hlists.ascend t, hmem, hcount, fun q => ?_, ?_, ?_, ?_⟩
  · rw [schemaAt, schemaAt, schemaAt?, schemaAt?, heq]
  · rw [earliest, earliest, heq]
  · rw [latest, latest, heq]
  · rw [count, count, heq]

/-- A layout of a table at a place, with one column. -/
def layoutIn (table filename : String) (place : UInt64) (column : String) : SchemaRecord :=
  { tableId := ⟨"shop", table⟩, columns := [⟨column, "int", none, 1, true, false, none⟩],
    position := .binlog filename place }

/-- Two layouts of the orders and one of the customers. -/
def shopLayouts : Finset SchemaRecord :=
  {layoutIn "orders" "log.1" 4 "id", layoutIn "orders" "log.2" 4 "note",
    layoutIn "customers" "log.1" 9 "name"}

/-- Once in order; and once with the later layout of the orders first, which then comes in all three
ways, and with some that are refused together. -/
theorem independent_of_arrival_orders :
    let early := layoutIn "orders" "log.1" 4 "id"
    let late := layoutIn "orders" "log.2" 4 "note"
    let other := layoutIn "customers" "log.1" 9 "name"
    let straight : List SchemaArrival := [.append early, .append other, .append late]
    let tangled : List SchemaArrival :=
      [.commit ⟨[late, other]⟩, .register other.tableId [other, early], .append late,
        .register early.tableId [late, early]]
    Placed shopLayouts ∧
      (straight.flatMap SchemaArrival.brought).toFinset = shopLayouts ∧
      (tangled.flatMap SchemaArrival.brought).toFinset = shopLayouts ∧
      (empty.receiveAll tangled).records early.tableId = [early, late] := by
  intro early late other straight tangled
  have hplaced : Placed shopLayouts := by
    constructor
    · intro r hr
      simp only [shopLayouts, Finset.mem_insert, Finset.mem_singleton] at hr
      rcases hr with rfl | rfl | rfl <;> exact ⟨_, _, rfl⟩
    · decide +kernel
  have hstraight : (straight.flatMap SchemaArrival.brought).toFinset = shopLayouts := by
    decide +kernel
  have htangled : (tangled.flatMap SchemaArrival.brought).toFinset = shopLayouts := by
    decide +kernel
  refine ⟨hplaced, hstraight, htangled, ?_⟩
  rw [← (independent_of_arrival hplaced hstraight htangled early.tableId).1]
  decide +kernel

end SchemaHistory
end Changefeed
