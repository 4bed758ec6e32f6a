import Mathlib.Data.Prod.Lex
import Mathlib.Data.String.Basic
import RobotLang.Proofs.Reachable
import RobotLang.Proofs.Reading

namespace RobotLang

namespace RosCall

def rank (c : RosCall) : String ×ₗ String := toLex (c.topic, c.kind.text)

theorem rank_injective {c d : RosCall} (h : c.rank = d.rank) : c = d := by
  obtain ⟨topic, kind⟩ := c
  obtain ⟨ht, hk⟩ := Prod.mk.inj (toLex.injective h)
  rw [RosCall.mk.injEq]
  exact ⟨ht, Grammar.CallKind.text_injective hk⟩

theorem before_iff {c d : RosCall} : c.before d ↔ c.rank < d.rank := by
  simp only [before, rank, Prod.Lex.toLex_lt_toLex, Bool.or_eq_true, Bool.and_eq_true,
    decide_eq_true_eq, beq_iff_eq]

end RosCall

namespace CallRegistry

def Ascending (cs : List RosCall) : Prop := cs.Pairwise fun c d => c.rank < d.rank

theorem Ascending.insertInto (c : RosCall) {cs : List RosCall} (h : Ascending cs) :
    Ascending (insertInto c cs) := by
  induction cs with
  | nil => exact List.pairwise_singleton _ c
  | cons d ds ih =>
      obtain ⟨hd, hds⟩ := List.pairwise_cons.1 h
      rw [CallRegistry.insertInto]
      split
      · exact h
      next hne =>
        split
        next hb =>
          have hcd := RosCall.before_iff.1 hb
          refine List.pairwise_cons.2 ⟨List.forall_mem_cons.2 ⟨hcd, fun e he => ?_⟩, h⟩
          exact hcd.trans (hd e he)
        next hb =>
          have hdc : d.rank < c.rank := by
            rw [RosCall.before_iff, not_lt] at hb
            exact lt_of_le_of_ne hb fun he => hne (RosCall.rank_injective he).symm
          refine List.pairwise_cons.2 ⟨fun e he => ?_, ih hds⟩
          rcases mem_insertInto.1 he with rfl | he
          · exact hdc
          · exact hd e he

theorem insertInto_of_mem {c : RosCall} {cs : List RosCall} (h : Ascending cs) (hc : c ∈ cs) :
    insertInto c cs = cs := by
  induction cs with
  | nil => cases hc
  | cons d ds ih =>
      obtain ⟨hd, hds⟩ := List.pairwise_cons.1 h
      rw [insertInto]
      split
      · rfl
      next hne =>
        have hmem : c ∈ ds := (List.mem_cons.1 hc).resolve_left hne
        have hb : ¬ c.before d := fun hb => (RosCall.before_iff.1 hb).not_gt (hd c hmem)
        rw [if_neg hb, ih hds hmem]

theorem ascending_insertAll (cs : List RosCall) {r : CallRegistry} (h : Ascending r.calls) :
    Ascending (r.insertAll cs).calls := by
  induction cs generalizing r with
  | nil => exact h
  | cons c cs ih => exact ih (r := r.insert c) (h.insertInto c)

theorem insertAll_of_mem {cs : List RosCall} {r : CallRegistry} (h : Ascending r.calls)
    (hc : ∀ c ∈ cs, c ∈ r) : r.insertAll cs = r := by
  induction cs with
  | nil => rfl
  | cons c cs ih =>
      obtain ⟨hmem, hcs⟩ := List.forall_mem_cons.1 hc
      have hr : r.insert c = r := congrArg CallRegistry.mk (insertInto_of_mem h hmem)
      rw [insertAll, List.foldl_cons, hr]
      exact ih hcs

/-- Registering the same calls once more changes nothing. -/
theorem insertAll_insertAll {r : CallRegistry} (h : Ascending r.calls) (cs : List RosCall) :
    (r.insertAll cs).insertAll cs = r.insertAll cs :=
  insertAll_of_mem (ascending_insertAll cs h) fun _ hc => mem_insertAll.2 (.inr hc)

end CallRegistry

theorem Change.ascending {T : Model → ParamType → Prop} {m n : Model} (h : Change T m n)
    (hm : CallRegistry.Ascending m.rosCalls.calls) : CallRegistry.Ascending n.rosCalls.calls := by
  cases h with
  | addRosCall c => exact hm.insertInto c
  | _ => exact hm

/-- In every model that can be reached, the calls of the registry ascend by topic and then by kind,
each of them standing there once. -/
theorem Reachable.ascending {m : Model} (h : Reachable m) : CallRegistry.Ascending m.rosCalls.calls :=
  ReachableBy.invariant (T := fun _ _ => True) (fun _ _ _ _ => trivial) (fun _ _ _ _ _ => trivial)
    List.Pairwise.nil Change.ascending h

end RobotLang
