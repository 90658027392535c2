import FfiHeaders.Proofs.Run
import FfiHeaders.Writer

/-!
# Sessions

A client asks a writer for one thing after the other, and a request that fails does not end the
session. Whatever is asked, a writer that has finalised once stays finalised.
-/
namespace FfiHeaders

/-- What a client can ask of a writer. -/
inductive Request
  | emit (module : List Value) (item : Item)
  /-- Emit the public declarations of a module and, if `finish` says so, finalise. -/
  | compile (m : Module) (finish : Bool)
  | setLibName (name : Value)
  | addCustomCode (code : String)
  | finalise

namespace Writer

def after (w : Writer) : Request → Writer
  | .emit module item => (w.emitItem module item).1
  | .compile m finish => { w with state := (w.compile m finish).state }
  | .setLibName name => (w.setLibName name).1
  | .addCustomCode code => w.addCustomCode code
  | .finalise => w.finalise.1

/-- What finalising resulted in, for a request that comes to it. A compilation stops before if a
declaration fails. -/
def finalisation? (w : Writer) : Request → Option (Except Failure (List (String × String)))
  | .compile m true =>
    match (w.state.feed m.visits).result with
    | .ok () => some (w.compile m true).result
    | .error _ => none
  | .finalise => some (w.finalise.2.map Bundle.files)
  | _ => none

/-- What each finalisation of a session resulted in, in order. -/
def finalisations (w : Writer) : List Request → List (Except Failure (List (String × String)))
  | [] => []
  | r :: rs => (w.finalisation? r).toList ++ (w.after r).finalisations rs

end Writer

namespace State

theorem visit_extends (s : State) (v : Visit) : Extends s (s.visit v).state := by
  cases v with
  | hidden path name =>
    rw [visit]
    split <;> exact .refl s
  | declaration path d =>
    have h := (emission_emit s path d).extends
    rw [visit]
    split
    · next t outcome ht => rwa [ht] at h
    · next t f ht => rwa [ht] at h

theorem feed_extends (s : State) (vs : List Visit) : Extends s (s.feed vs).state := by
  induction vs generalizing s with
  | nil => exact .refl s
  | cons v vs ih =>
    rw [feed]
    split
    · exact visit_extends s v
    · exact (visit_extends s v).trans (ih _)

end State

namespace Writer

variable {w : Writer}

theorem isFinalised_after (h : w.state.isFinalised) (r : Request) :
    (w.after r).state.isFinalised := by
  cases r with
  | emit module item => exact (State.emitItem_extends w.state module item).isFinalised.trans h
  | compile m finish =>
    have hfed := (State.feed_extends w.state m.visits).isFinalised.trans h
    rw [after, compile]
    split
    · exact hfed
    · rw [State.finalise_of_isFinalised hfed]
      split <;> exact hfed
  | setLibName name =>
    rw [after, setLibName]
    split <;> exact h
  | addCustomCode code => exact h
  | finalise => exact State.finalise_isFinalised w.state w.customCode

/-- A request that comes to finalising finalises the state of its writer, or the state to which the
module of the request has brought it. -/
theorem exists_of_finalisation {r : Request} {x : Except Failure (List (String × String))}
    (hx : w.finalisation? r = some x) :
    ∃ s, State.Extends w.state s ∧ (w.after r).state = (s.finalise w.customCode).1 ∧
      x = (s.finalise w.customCode).2.map Bundle.files := by
  cases r with
  | compile m finish =>
    cases finish with
    | false => cases hx
    | true =>
      rw [finalisation?] at hx
      split at hx
      · next hfed =>
        obtain rfl := Option.some.inj hx
        refine ⟨_, State.feed_extends w.state m.visits, ?_⟩
        rw [after, compile, hfed]
        dsimp only
        rw [if_pos rfl]
        rcases (w.state.feed m.visits).state.finalise w.customCode with ⟨s, f | b⟩
        · exact ⟨rfl, rfl⟩
        · exact ⟨rfl, rfl⟩
      · cases hx
  | finalise =>
    obtain rfl := Option.some.inj hx
    exact ⟨w.state, .refl _, rfl, rfl⟩
  | emit | setLibName | addCustomCode => cases hx

theorem finalisation_of_isFinalised (h : w.state.isFinalised) {r : Request}
    {x : Except Failure (List (String × String))} (hx : w.finalisation? r = some x) :
    x = .error (.reject .finalisedTwice) := by
  obtain ⟨s, hs, -, rfl⟩ := exists_of_finalisation hx
  rw [State.finalise_of_isFinalised (hs.isFinalised.trans h)]
  rfl

theorem isFinalised_of_finalisation {r : Request} {x : Except Failure (List (String × String))}
    (hx : w.finalisation? r = some x) : (w.after r).state.isFinalised := by
  obtain ⟨s, -, hs, -⟩ := exists_of_finalisation hx
  rw [hs]
  exact State.finalise_isFinalised s w.customCode

theorem finalisations_of_isFinalised (h : w.state.isFinalised) (rs : List Request) :
    ∀ x ∈ w.finalisations rs, x = .error (.reject .finalisedTwice) := by
  induction rs generalizing w with
  | nil => exact nofun
  | cons r rs ih =>
    intro x hx
    rcases List.mem_append.1 hx with hx | hx
    · exact finalisation_of_isFinalised h (Option.mem_toList.1 hx)
    · exact ih (isFinalised_after h r) x hx

/-- Only the first finalisation of a session can give files. -/
theorem finalisations_tail (w : Writer) (rs : List Request) :
    ∀ x ∈ (w.finalisations rs).tail, x = .error (.reject .finalisedTwice) := by
  induction rs generalizing w with
  | nil => exact nofun
  | cons r rs ih =>
    rw [finalisations]
    cases hr : w.finalisation? r with
    | none => exact ih (w.after r)
    | some x => exact finalisations_of_isFinalised (isFinalised_of_finalisation hr) rs

theorem countP_finalisations_le_one (w : Writer) (rs : List Request) :
    (w.finalisations rs).countP (·.isOk) ≤ 1 := by
  have htail := finalisations_tail w rs
  cases hxs : w.finalisations rs with
  | nil => exact Nat.zero_le 1
  | cons x xs =>
    rw [hxs] at htail
    have hzero : xs.countP (·.isOk) = 0 := by
      refine List.countP_eq_zero.2 fun y hy => ?_
      rw [htail y hy]
      exact nofun
    rw [List.countP_cons, hzero]
    split <;> omega

end Writer

end FfiHeaders
