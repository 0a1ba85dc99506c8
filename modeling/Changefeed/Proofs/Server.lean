import Mathlib.Tactic.Lemma
import Changefeed.Server.Basic

/-!
# What calls leave as it is

A call to the server counts itself, uses up answers and failures of the script, and notes where
streams were opened.  What the server holds stays the same: its log, the part of it that is
retained, its tables and their rows.

A server that fails no call answers with what it holds, and the next call finds a server that
answers in the same way: only asking for the position uses up an answer.
-/

namespace Changefeed
namespace Server

/-- The second server holds what the first one does. -/
structure SameData (s s' : Server) : Prop where
  log : s'.log = s.log
  retained : s'.retained = s.retained
  schemas : s'.schemas = s.schemas
  rows : s'.rows = s.rows

namespace SameData

lemma refl (s : Server) : s.SameData s := ⟨rfl, rfl, rfl, rfl⟩

lemma symm {s s' : Server} (h : s.SameData s') : s'.SameData s :=
  ⟨h.log.symm, h.retained.symm, h.schemas.symm, h.rows.symm⟩

lemma trans {s s' s'' : Server} (h : s.SameData s') (h' : s'.SameData s'') : s.SameData s'' :=
  ⟨h'.log.trans h.log, h'.retained.trans h.retained, h'.schemas.trans h.schemas,
    h'.rows.trans h.rows⟩

end SameData

/-! ## Calls that only count -/

/-- The server without what it counts. -/
def uncounted (s : Server) : Server :=
  { s with
    script := { s.script with made := [] }, opened := #[], schemaQueries := 0, resets := 0,
    closes := 0 }

lemma sameData_uncounted (s : Server) : s.SameData s.uncounted := ⟨rfl, rfl, rfl, rfl⟩

/-- The call changes nothing but what the server counts, whether it fails or not. -/
def Counts {α : Type} (act : ServerAct α) : Prop := ∀ s : Server, (act s).2.uncounted = s.uncounted

lemma Counts.uncounted_eq {α : Type} {act : ServerAct α} (h : Counts act) {s s' : Server}
    {r : Outcome α} (heq : act s = (r, s')) : s'.uncounted = s.uncounted := by
  have hs := h s
  rwa [heq] at hs

lemma counts_call {α : Type} (c : ServerCall) {act : ServerAct α} (h : Counts act) :
    Counts (call c act) := by
  intro s
  unfold call
  split
  · next hmake =>
    obtain rfl := (Prod.mk.inj hmake).2
    rfl
  · next script hmake =>
    obtain rfl := (Prod.mk.inj hmake).2
    exact (h _).trans rfl

lemma counts_logFiles : Counts logFiles := counts_call _ fun _ => rfl

lemma counts_knownGtids : Counts knownGtids := counts_call _ fun _ => rfl

lemma counts_purgedGtids : Counts purgedGtids := counts_call _ fun _ => rfl

lemma counts_querySchema (tableId : TableId) : Counts (querySchema tableId) :=
  counts_call _ fun s => by
    dsimp only
    split <;> rfl

lemma counts_resetListeners : Counts resetListeners := counts_call _ fun _ => rfl

lemma counts_scan (split : SnapshotSplit) : Counts (scan split) := counts_call _ fun s => by
  split <;> rfl

lemma counts_checkOffset (o : Offset) : Counts (checkOffset o) := by
  intro s
  unfold checkOffset
  cases o with
  | binlog filename position =>
    dsimp only
    split
    · rfl
    · split
      · next heq => exact counts_logFiles.uncounted_eq heq
      · next heq => exact counts_logFiles.uncounted_eq heq
  | gtid set =>
    dsimp only
    split
    · rfl
    · split
      · next heq => exact counts_knownGtids.uncounted_eq heq
      · next heq =>
        have hknown := counts_knownGtids.uncounted_eq heq
        split
        · exact hknown
        · split
          · next heq' => exact (counts_purgedGtids.uncounted_eq heq').trans hknown
          · next heq' => exact (counts_purgedGtids.uncounted_eq heq').trans hknown

lemma counts_ensureResumable (o : Offset) : Counts (ensureResumable o) := by
  intro s
  unfold ensureResumable
  split
  · next heq => exact (counts_checkOffset o).uncounted_eq heq
  · next heq => exact (counts_checkOffset o).uncounted_eq heq
  · next heq => exact (counts_checkOffset o).uncounted_eq heq

lemma counts_close : Counts close := fun _ => rfl

/-! ## Calls that leave the data as it is -/

/-- The call leaves what the server holds as it is, whether it fails or not. -/
def Keeps {α : Type} (act : ServerAct α) : Prop := ∀ s : Server, s.SameData (act s).2

lemma SameData.of_uncounted_eq {s s' : Server} (h : s'.uncounted = s.uncounted) :
    s.SameData s' := by
  have hafter := (sameData_uncounted s').symm
  rw [h] at hafter
  exact (sameData_uncounted s).trans hafter

lemma Counts.keeps {α : Type} {act : ServerAct α} (h : Counts act) : Keeps act := fun s =>
  .of_uncounted_eq (h s)

lemma keeps_call {α : Type} (c : ServerCall) {act : ServerAct α} (h : Keeps act) :
    Keeps (call c act) := by
  intro s
  unfold call
  split
  · exact ⟨rfl, rfl, rfl, rfl⟩
  · next script _ =>
    have hscript : s.SameData { s with script } := ⟨rfl, rfl, rfl, rfl⟩
    exact hscript.trans (h { s with script })

lemma keeps_openStream (o : Offset) : Keeps (openStream o) :=
  keeps_call _ fun _ => ⟨rfl, rfl, rfl, rfl⟩

/-! ## Servers that fail no call -/

/-- No call fails, and no stream is interrupted. -/
structure Quiet (s : Server) : Prop where
  calls : s.script.faults = []
  streams : s.streamFaults = []
  drops : s.drops.1 = 0

/-- The position that the server answers next. -/
def answer (s : Server) : Offset := s.positions.headD s.lastPosition

/-- The position that the server answers after the next one. -/
def nextAnswer (s : Server) : Offset := s.positions.tail.headD s.answer

/-- The server has answered one position. -/
def answered (s : Server) : Server :=
  { s with positions := s.positions.tail, lastPosition := s.answer }

variable {s s' : Server}

lemma Quiet.congr (h : s.Quiet) (heq : s'.uncounted = s.uncounted) : s'.Quiet where
  calls := (congrArg (fun s : Server => s.script.faults) heq).trans h.calls
  streams := (congrArg streamFaults heq).trans h.streams
  drops := (congrArg (fun s : Server => s.drops.1) heq).trans h.drops

lemma log_congr (heq : s'.uncounted = s.uncounted) : s'.log = s.log := by
  have hlog := congrArg log heq
  exact hlog

lemma answered_congr (heq : s'.uncounted = s.uncounted) :
    s'.answered.uncounted = s.answered.uncounted := by
  have hanswered := congrArg answered heq
  exact hanswered

lemma Quiet.answered (h : s.Quiet) : s.answered.Quiet :=
  ⟨h.calls, h.streams, h.drops⟩

lemma call_quiet {α : Type} (h : s.Quiet) (c : ServerCall) (act : ServerAct α) :
    call c act s = act { s with script := (s.script.make c).2 } := by
  have hmake : s.script.make c = (none, (s.script.make c).2) := by
    simp [Script.make, h.calls]
  unfold call
  rw [hmake]

lemma streamFault_quiet (h : s.Quiet) (script : Script ServerCall) (c : ServerCall) :
    ({ s with script } : Server).streamFault c = none := by
  simp [streamFault, h.streams]

lemma querySchema_quiet (h : s.Quiet) {t : TableId} {r : SchemaRecord}
    (hr : s.schemas.find? t = some r) : (querySchema t s).1 = .ok r := by
  rw [querySchema, call_quiet h]
  dsimp only
  rw [hr]

lemma resetListeners_quiet (h : s.Quiet) : (resetListeners s).1 = .ok () := by
  rw [resetListeners, call_quiet h]

lemma scan_quiet (h : s.Quiet) {split : SnapshotSplit} {records : List LogRecord}
    (hrecords : s.scanned.elim (s.scanRows split) .ok = .ok records) :
    (scan split s).1 = .ok { records, endsWhenDrained := true } := by
  have hcounted : ∀ script : Script ServerCall,
      ({ s with script } : Server).scanRows split = s.scanRows split := fun _ => rfl
  rw [scan, call_quiet h]
  dsimp only
  rw [hcounted, hrecords]
  dsimp only
  rw [streamFault_quiet h]

lemma openStream_quiet (h : s.Quiet) (o : Offset) :
    (openStream o s).1 =
        .ok { records := s.recordsAfter o, endsWhenDrained := s.endsWhenDrained } ∧
      (openStream o s).2.uncounted = s.uncounted := by
  have hdrops : (s.drops.1 - 1, s.drops.2) = s.drops := Prod.ext (by rw [h.drops]) rfl
  rw [openStream, call_quiet h]
  dsimp only
  rw [streamFault_quiet h, if_pos h.drops, hdrops]
  exact ⟨rfl, rfl⟩

lemma currentPosition_quiet (h : s.Quiet) :
    (currentPosition s).1 = .ok s.answer ∧
      (currentPosition s).2.uncounted = s.answered.uncounted := by
  rw [currentPosition, call_quiet h]
  obtain ⟨_, positions⟩ := s
  cases positions <;> exact ⟨rfl, rfl⟩

/-! ## Whether a position can be served -/

lemma act_of_call {α : Type} {c : ServerCall} {act : ServerAct α} {a : α}
    (h : call c act s = (.ok a, s')) :
    act { s with script := (s.script.make c).2 } = (.ok a, s') := by
  unfold call at h
  split at h
  · cases h
  · next script hmake => rwa [hmake]

/-- A check that comes to a verdict has read what the server retains. -/
lemma checkOffset_ok {o : Offset} {reason : Option Unresumable}
    (h : checkOffset o s = (.ok reason, s')) : reason = Resume.check o s.retained := by
  unfold checkOffset at h
  cases o with
  | binlog filename position =>
    dsimp only at h
    split at h
    · next hempty =>
      obtain rfl := Except.ok.inj (Prod.mk.inj h).1
      simp [Resume.check, Resume.checkFile, hempty]
    · split at h
      · next files s₁ hfiles =>
        obtain ⟨rfl, -⟩ : s.retained.logFiles = files ∧ _ := by
          simpa using act_of_call hfiles
        exact (Except.ok.inj (Prod.mk.inj h).1).symm
      · cases (Prod.mk.inj h).1
  | gtid set =>
    dsimp only at h
    split at h
    · next hempty =>
      obtain rfl := Except.ok.inj (Prod.mk.inj h).1
      simp [Resume.check, Resume.checkGtidSet, hempty]
    · next hsome =>
      split at h
      · cases (Prod.mk.inj h).1
      · next known s₁ hknown =>
        obtain ⟨rfl, -⟩ : s.retained.known = known ∧ _ := by
          simpa using act_of_call hknown
        split at h
        · next hnone =>
          obtain rfl := Except.ok.inj (Prod.mk.inj h).1
          simp [Resume.check, Resume.checkGtidSet, hsome, hnone]
        · split at h
          · cases (Prod.mk.inj h).1
          · next purged s₂ hpurged =>
            have hretained : s₁.retained = s.retained := by
              have hkeeps := (counts_knownGtids.keeps s).retained
              rwa [hknown] at hkeeps
            obtain ⟨rfl, -⟩ : s₁.retained.purged = purged ∧ _ := by
              simpa using act_of_call hpurged
            rw [← Except.ok.inj (Prod.mk.inj h).1, hretained]
            rfl

/-- A server that fails no call comes to a verdict. -/
lemma checkOffset_quiet (h : s.Quiet) (o : Offset) :
    (checkOffset o s).1 = .ok (Resume.check o s.retained) := by
  have hverdict : ∃ reason, (checkOffset o s).1 = .ok reason := by
    unfold checkOffset
    cases o with
    | binlog filename position =>
      rw [logFiles, call_quiet h]
      dsimp only
      split <;> exact ⟨_, rfl⟩
    | gtid set =>
      have hquiet := h.congr (counts_knownGtids s)
      rw [knownGtids, call_quiet h] at hquiet ⊢
      dsimp only at hquiet ⊢
      rw [purgedGtids, call_quiet hquiet]
      split
      · exact ⟨_, rfl⟩
      · dsimp only
        split <;> exact ⟨_, rfl⟩
  obtain ⟨reason, hreason⟩ := hverdict
  rw [hreason, checkOffset_ok (Prod.ext hreason rfl)]

lemma check_of_ensureResumable {o : Offset} (h : (ensureResumable o s).1 = .ok ()) :
    Resume.check o s.retained = none := by
  unfold ensureResumable at h
  split at h
  · next hcheck => exact (checkOffset_ok hcheck).symm
  · cases h
  · cases h

lemma ensureResumable_quiet (h : s.Quiet) {o : Offset}
    (hcheck : Resume.check o s.retained = none) : (ensureResumable o s).1 = .ok () := by
  have hverdict := checkOffset_quiet h o
  rw [hcheck] at hverdict
  unfold ensureResumable
  generalize checkOffset o s = checked at hverdict ⊢
  obtain ⟨result, s'⟩ := checked
  obtain rfl : result = .ok none := hverdict
  rfl

lemma ensureResumable_congr (hs : s'.Quiet) (hretained : s'.retained = s.retained) {o : Offset}
    (h : (ensureResumable o s).1 = .ok ()) : (ensureResumable o s').1 = .ok () := by
  refine ensureResumable_quiet hs ?_
  rw [hretained]
  exact check_of_ensureResumable h

end Server
end Changefeed
