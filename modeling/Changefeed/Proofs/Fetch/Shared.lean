import Changefeed.Fetch.Shared
import Changefeed.Proofs.Server

/-!
# Actions on what is shared

One action after another succeeds when both do, and what the first one leaves is what the second one
finds.  A relation that every step keeps to is kept by the whole, whether it succeeds or fails.
-/

namespace Changefeed
namespace Act

variable {α β : Type}

/-- Two actions of which the first one succeeds. -/
lemma bind_of_ok {act : Act α} {next : α → Act β} {sh sh' : Shared} {a : α}
    (h : act sh = (.ok a, sh')) : (act >>= next) sh = next a sh' := by
  show Act.andThen act next sh = _
  rw [andThen, h]

lemma bind_of_error {act : Act α} {next : α → Act β} {sh sh' : Shared} {f : Fault}
    (h : act sh = (.error f, sh')) : (act >>= next) sh = (.error f, sh') := by
  show Act.andThen act next sh = _
  rw [andThen, h]

/-- Two actions succeed one after the other. -/
lemma bind_eq_ok {act : Act α} {next : α → Act β} {sh sh'' : Shared} {b : β}
    (h : (act >>= next) sh = (.ok b, sh'')) :
    ∃ a sh', act sh = (.ok a, sh') ∧ next a sh' = (.ok b, sh'') := by
  cases hact : act sh with
  | mk result sh' =>
    cases result with
    | error f =>
      rw [bind_of_error hact] at h
      cases h
    | ok a => exact ⟨a, sh', rfl, (bind_of_ok hact).symm.trans h⟩

/-- Two actions fail when one of them does. -/
lemma bind_eq_error {act : Act α} {next : α → Act β} {sh sh'' : Shared} {f : Fault}
    (h : (act >>= next) sh = (.error f, sh'')) :
    act sh = (.error f, sh'') ∨ ∃ a sh', act sh = (.ok a, sh') ∧ next a sh' = (.error f, sh'') := by
  cases hact : act sh with
  | mk result sh' =>
    cases result with
    | error f' =>
      rw [bind_of_error hact, Prod.mk.injEq, Except.error.injEq] at h
      obtain ⟨rfl, rfl⟩ := h
      exact .inl rfl
    | ok a => exact .inr ⟨a, sh', rfl, (bind_of_ok hact).symm.trans h⟩

lemma ask_of_ok {act : ServerAct α} {sh : Shared} {a : α} (h : (act sh.server).1 = .ok a) :
    ask act sh = (.ok a, { sh with server := (act sh.server).2 }) := by
  rw [ask, h]

lemma ask_eq_ok {act : ServerAct α} {sh sh' : Shared} {a : α} (h : ask act sh = (.ok a, sh')) :
    (act sh.server).1 = .ok a ∧ sh' = { sh with server := (act sh.server).2 } :=
  ⟨congrArg Prod.fst h, (congrArg Prod.snd h).symm⟩

lemma commit_eq_ok {b : SchemaBatch} {sh sh' : Shared} {u : Unit}
    (h : commit b sh = (.ok u, sh')) : sh' = { sh with history := b.commit sh.history } :=
  (congrArg Prod.snd h).symm

lemma ofOutcome_eq_ok {r : Outcome α} {sh sh' : Shared} {a : α}
    (h : ofOutcome r sh = (.ok a, sh')) : r = .ok a ∧ sh' = sh :=
  ⟨congrArg Prod.fst h, (congrArg Prod.snd h).symm⟩

lemma pure_eq_ok {a b : α} {sh sh' : Shared} (h : (pure a : Act α) sh = (.ok b, sh')) :
    b = a ∧ sh' = sh :=
  ⟨(Except.ok.inj (congrArg Prod.fst h)).symm, (congrArg Prod.snd h).symm⟩

/-- A relation between what is shared before and after that steps can keep to one after the other.
-/
structure Chain (R : Shared → Shared → Prop) : Prop where
  refl : ∀ sh, R sh sh
  trans : ∀ {sh sh' sh''}, R sh sh' → R sh' sh'' → R sh sh''

/-- The action keeps to a relation, whether it fails or not. -/
def Keeps (R : Shared → Shared → Prop) (act : Act α) : Prop := ∀ sh, R sh (act sh).2

variable {R : Shared → Shared → Prop}

lemma keeps_pure (hR : Chain R) (a : α) : Keeps R (pure a : Act α) := hR.refl

lemma keeps_ofOutcome (hR : Chain R) (r : Outcome α) : Keeps R (ofOutcome r) := hR.refl

lemma keeps_bind (hR : Chain R) {act : Act α} {next : α → Act β} (hact : Keeps R act)
    (hnext : ∀ a, Keeps R (next a)) : Keeps R (act >>= next) := by
  intro sh
  have hfirst := hact sh
  cases h : act sh with
  | mk result sh' =>
    rw [h] at hfirst
    cases result with
    | error f =>
      rw [bind_of_error h]
      exact hfirst
    | ok a =>
      rw [bind_of_ok h]
      exact hR.trans hfirst (hnext a sh')

end Act
end Changefeed
