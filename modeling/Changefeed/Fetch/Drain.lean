import Changefeed.Fetch.Session

/-!
# Reading to the end

A session is drained batch by batch until the sequence ends, fails or has nothing to deliver any
more.  Every batch leaves less to do, so this comes to an end.
-/

namespace Changefeed
namespace Session

/-- The lexicographic order of the work left. -/
abbrev Before : Nat × Nat × Nat × Nat → Nat × Nat × Nat × Nat → Prop :=
  Prod.Lex (· < ·) (Prod.Lex (· < ·) (Prod.Lex (· < ·) (· < ·)))

/-- Something before something before a third comes before the third. -/
theorem before_trans {a b c : Nat × Nat × Nat × Nat} (hab : Before a b) (hbc : Before b c) :
    Before a c := by
  simp only [Before, Prod.lex_def] at *
  omega

/-- Every batch of events leaves less to do. -/
theorem nextBatch_before {s s' : Session} {sh sh' : Shared} {es : List ChangeEvent}
    (h : s.nextBatch sh = (.events es, s', sh')) : Before s'.toDo s.toDo := by
  fun_induction nextBatch s sh with
  | case1 s sh hpending =>
    simp only [deliverPending, deliver, Reader.takePending, Prod.mk.injEq] at h
    obtain ⟨-, rfl, -⟩ := h
    have hlen := List.length_pos_iff.mpr hpending
    refine .right _ (.right _ (.right _ ?_))
    simp only [List.length_drop]
    omega
  | case2 => simp at h
  | case3 => simp at h
  | case4 s sh _ _ s₁ sh₁ _ =>
    unfold finish at h
    split at h
    · simp at h
    · simp only [Prod.mk.injEq] at h
      split at h <;> simp at h
  | case5 => simp [failWith] at h
  | case6 => simp at h
  | case7 => simp [failWith] at h
  | case8 s sh _ _ s₁ sh₁ rs hpoll hrs =>
    simp only [deliver, Prod.mk.injEq] at h
    obtain ⟨-, rfl, -⟩ := h
    have hless := poll_less hpoll hrs
    exact lex_of_less hless
  | case9 s sh _ _ s₁ sh₁ rs hpoll hrs =>
    simp only [Prod.mk.injEq] at h
    obtain ⟨-, rfl, -⟩ := h
    have hless := poll_less hpoll hrs
    exact lex_of_less hless
  | case10 s sh _ _ s₁ sh₁ rs hpoll hrs reader _ _ _ ih =>
    have hless := poll_less hpoll hrs
    exact before_trans (ih h) (lex_of_less hless)

/-- How reading stopped. -/
inductive Stop where
  | ended
  /-- Nothing more will come. -/
  | idle
  | failed (f : Fault)

/-- Reads to the end: the batches, and how it stopped. -/
def drain (s : Session) (sh : Shared) : List (List ChangeEvent) × Stop × Session × Shared :=
  match _h : s.nextBatch sh with
  | (.events es, s, sh) =>
    let (batches, stop, s, sh) := s.drain sh
    (es :: batches, stop, s, sh)
  | (.idle, s, sh) => ([], .idle, s, sh)
  | (.ended, s, sh) => ([], .ended, s, sh)
  | (.failed f, s, sh) => ([], .failed f, s, sh)
termination_by s.toDo
decreasing_by exact nextBatch_before _h

end Session
end Changefeed
